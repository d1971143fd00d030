/-
# `ByteStreamQueue`

`src/util/bytestream_queue.cc`: a ring of bytes between two file descriptors.  Two indices
say where the next byte is written and where the next one is read; a slot stays free, so
that equal indices mean an empty ring.  The index differences are taken in `size_t`, and
wrap.  A transfer is clipped at the physical end of the buffer, and `read` and `write` may
move fewer bytes than they are offered.

`Transfer` is the queue with a record of the bytes pushed and popped.  Whatever the file
descriptors do, the bytes popped come out in the order in which they were pushed, and the
others are the ones the queue holds (`relays_in_order`).
-/

import V2Proxy.Foundations.Ring
import V2Proxy.Foundations.Runs
import V2Proxy.Util.Bytes

namespace V2Proxy

open Foundations

/-- `ByteStreamQueue`: a ring of bytes, where the next one is pushed and where it is
popped. -/
structure ByteStreamQueue where
  buffer : Bytes
  /-- a `size_t`, as `next_byte_to_pop` -/
  nextByteToPush : ℕ := 0
  nextByteToPop : ℕ := 0
deriving DecidableEq

namespace ByteStreamQueue

/-- `ByteStreamQueue::ByteStreamQueue`. -/
def new (size : ℕ) : Except Fault ByteStreamQueue := do
  assert (1 < size) "size > 1"
  return { buffer := List.replicate size 0 }

/-- `ByteStreamQueue::available_to_pop`. -/
def availableToPop (q : ByteStreamQueue) : ℕ :=
  (sizeSub q.nextByteToPush q.nextByteToPop +
    if q.nextByteToPush < q.nextByteToPop then q.buffer.length else 0) % 2 ^ 64

/-- `ByteStreamQueue::available_to_push`. -/
def availableToPush (q : ByteStreamQueue) : ℕ :=
  (sizeSub (sizeSub q.nextByteToPop q.nextByteToPush) 1 +
    if q.nextByteToPush < q.nextByteToPop then 0 else q.buffer.length) % 2 ^ 64

/-- `space_available`. -/
def spaceAvailable (q : ByteStreamQueue) : Bool := 0 < q.availableToPush

/-- `non_empty`. -/
def nonEmpty (q : ByteStreamQueue) : Bool := 0 < q.availableToPop

/-- `ByteStreamQueue::Result`. -/
inductive Result where
  | Success
  | EndOfFile
deriving DecidableEq

/-- `contiguous_space_to_push`, what `read` is offered. -/
def contiguousSpaceToPush (q : ByteStreamQueue) : ℕ :=
  if q.buffer.length ≤ (q.nextByteToPush + q.availableToPush) % 2 ^ 64 then
    sizeSub q.buffer.length q.nextByteToPush
  else q.availableToPush

/-- `contiguous_space_to_pop`, what `write` is offered. -/
def contiguousSpaceToPop (q : ByteStreamQueue) : ℕ :=
  if q.buffer.length ≤ (q.nextByteToPop + q.availableToPop) % 2 ^ 64 then
    sizeSub q.buffer.length q.nextByteToPop
  else q.availableToPop

/-- `ByteStreamQueue::push`, with `new_chunk` what `read` returns. -/
def push (q : ByteStreamQueue) (newChunk : Bytes) : Except Fault (Result × ByteStreamQueue) := do
  assert (q.spaceAvailable = true) "space_available()"
  assert (0 < q.contiguousSpaceToPush) "contiguous_space_to_push > 0"
  if newChunk = [] then return (.EndOfFile, q)
  else
    assert (newChunk.length ≤ sizeSub q.buffer.length q.nextByteToPush)
      "new_chunk.size() <= buffer_.size() - next_byte_to_push"
    if q.buffer.length ≤ q.nextByteToPush then .error (.outOfRange (ascii "basic_string::at"))
    else
      let nextByteToPush := q.nextByteToPush + newChunk.length
      assert (nextByteToPush ≤ q.buffer.length) "next_byte_to_push <= buffer_.size()"
      let q' : ByteStreamQueue := { q with
        buffer := overwrite q.buffer q.nextByteToPush newChunk
        nextByteToPush := wrapAt q.buffer.length nextByteToPush }
      assert (q'.nonEmpty = true) "non_empty()"
      return (.Success, q')

/-- `ByteStreamQueue::pop`, with `written` what the system call `write` returns: the bytes
that are written, and the queue. -/
def pop (q : ByteStreamQueue) (written : ℕ) : Except Fault (Bytes × ByteStreamQueue) := do
  assert (q.nonEmpty = true) "non_empty()"
  let endOfPop := q.nextByteToPop + q.contiguousSpaceToPop
  assert (q.nextByteToPop ≤ endOfPop) "end_of_pop >= pop_iterator"
  if endOfPop ≤ q.nextByteToPop then .error (.runtimeError (ascii "nothing to write"))
  else if written = 0 then .error (.runtimeError (ascii "write returned 0"))
  else
    let nextByteToPop := q.nextByteToPop + written
    assert (nextByteToPop ≤ q.buffer.length) "next_byte_to_pop <= buffer_.size()"
    return ((q.buffer.drop q.nextByteToPop).take written,
      { q with nextByteToPop := wrapAt q.buffer.length nextByteToPop })

/-- The bytes in the queue, the next one to pop first. -/
def held (q : ByteStreamQueue) : Bytes := ringContents q.buffer q.nextByteToPop q.nextByteToPush

/-- The indices are in the buffer, which is a `std::string`. -/
structure InBuffer (q : ByteStreamQueue) : Prop where
  size : 1 < q.buffer.length
  length_lt : q.buffer.length < maxSize
  push_lt : q.nextByteToPush < q.buffer.length
  pop_lt : q.nextByteToPop < q.buffer.length

variable {q q' : ByteStreamQueue}

/-- How much can be popped. -/
theorem InBuffer.availableToPop (h : q.InBuffer) :
    q.availableToPop = if q.nextByteToPop ≤ q.nextByteToPush then q.nextByteToPush - q.nextByteToPop
      else q.buffer.length - q.nextByteToPop + q.nextByteToPush := by
  obtain ⟨hsize, hmax, hpush, hpop⟩ := h
  simp only [ByteStreamQueue.availableToPop, sizeSub, maxSize] at hmax ⊢
  split_ifs <;> omega

/-- How much can be pushed: the ring keeps one byte free. -/
theorem InBuffer.availableToPush (h : q.InBuffer) :
    q.availableToPush = q.buffer.length - 1 - q.availableToPop := by
  rw [h.availableToPop]
  obtain ⟨hsize, hmax, hpush, hpop⟩ := h
  simp only [ByteStreamQueue.availableToPush, sizeSub, maxSize] at hmax ⊢
  split_ifs <;> omega

/-- **The unsigned differences count the bytes held.** -/
theorem InBuffer.length_held (h : q.InBuffer) : q.held.length = q.availableToPop := by
  rw [held, length_ringContents h.push_lt, h.availableToPop]

/-- There is room for less than the whole buffer. -/
theorem InBuffer.available_lt (h : q.InBuffer) : q.availableToPop < q.buffer.length := by
  have hpush := h.push_lt
  have hpop := h.pop_lt
  rw [h.availableToPop]
  split_ifs <;> omega

/-- What `read` is offered lies in one piece, and leaves a slot free. -/
theorem InBuffer.contiguousSpaceToPush (h : q.InBuffer) {k : ℕ}
    (hk : k ≤ q.contiguousSpaceToPush) :
    q.nextByteToPush + k ≤ q.buffer.length ∧ k ≤ q.availableToPush ∧
      if q.nextByteToPop ≤ q.nextByteToPush then
        0 < q.nextByteToPop ∨ q.nextByteToPush + k < q.buffer.length
      else q.nextByteToPush + k < q.nextByteToPop := by
  have hpush := h.availableToPush
  have hpop := h.availableToPop
  obtain ⟨hsize, hmax, hpush_lt, hpop_lt⟩ := h
  rw [ByteStreamQueue.contiguousSpaceToPush, sizeSub] at hk
  unfold maxSize at hmax
  split_ifs at hk hpop ⊢ <;> refine ⟨?_, ?_, ?_⟩ <;> omega

/-- What `write` is offered lies in one piece. -/
theorem InBuffer.contiguousSpaceToPop (h : q.InBuffer) {k : ℕ} (hk : k ≤ q.contiguousSpaceToPop) :
    q.nextByteToPop + k ≤ q.buffer.length ∧
      if q.nextByteToPop ≤ q.nextByteToPush then q.nextByteToPop + k ≤ q.nextByteToPush
      else q.nextByteToPop + k ≤ q.buffer.length := by
  have hpop := h.availableToPop
  obtain ⟨hsize, hmax, hpush_lt, hpop_lt⟩ := h
  rw [ByteStreamQueue.contiguousSpaceToPop, sizeSub] at hk
  unfold maxSize at hmax
  split_ifs at hk hpop ⊢ <;> refine ⟨?_, ?_⟩ <;> omega

/-- Where there is space, some of it is in one piece. -/
theorem InBuffer.contiguousSpaceToPush_pos (h : q.InBuffer) (hspace : q.spaceAvailable = true) :
    0 < q.contiguousSpaceToPush := by
  have hpos : 0 < q.availableToPush := of_decide_eq_true hspace
  obtain ⟨hsize, hmax, hpush_lt, hpop_lt⟩ := h
  rw [ByteStreamQueue.contiguousSpaceToPush, sizeSub]
  unfold maxSize at hmax
  split_ifs <;> omega

/-- Where there are bytes, some of them are in one piece. -/
theorem InBuffer.contiguousSpaceToPop_pos (h : q.InBuffer) (hne : q.nonEmpty = true) :
    0 < q.contiguousSpaceToPop := by
  have hpos : 0 < q.availableToPop := of_decide_eq_true hne
  obtain ⟨hsize, hmax, hpush_lt, hpop_lt⟩ := h
  rw [ByteStreamQueue.contiguousSpaceToPop, sizeSub]
  unfold maxSize at hmax
  split_ifs <;> omega

/-- **`push` appends what was read,** and no assertion of it fails. -/
theorem InBuffer.push (h : q.InBuffer) (hspace : q.spaceAvailable = true) {newChunk : Bytes}
    (hk : newChunk.length ≤ q.contiguousSpaceToPush) :
    ∃ r q', q.push newChunk = .ok (r, q') ∧ (r = .EndOfFile ↔ newChunk = []) ∧ q'.InBuffer ∧
      q'.buffer.length = q.buffer.length ∧ q'.held = q.held ++ newChunk := by
  obtain ⟨hend, hroom, hfree⟩ := h.contiguousSpaceToPush hk
  rw [ByteStreamQueue.push, assert_of hspace, ok_bind, assert_of (h.contiguousSpaceToPush_pos hspace),
    ok_bind]
  by_cases hnil : newChunk = []
  · rw [if_pos hnil]
    exact ⟨_, _, rfl, iff_of_true rfl hnil, h, rfl, by rw [hnil, List.append_nil]⟩
  have hlength : (overwrite q.buffer q.nextByteToPush newChunk).length = q.buffer.length :=
    length_overwrite hend
  set q' : ByteStreamQueue := { q with
    buffer := overwrite q.buffer q.nextByteToPush newChunk
    nextByteToPush := wrapAt q.buffer.length (q.nextByteToPush + newChunk.length) } with hq'
  have hsize := h.size
  have hbuffer : q'.InBuffer := by
    refine ⟨hlength.symm ▸ hsize, hlength.symm ▸ h.length_lt, ?_, hlength.symm ▸ h.pop_lt⟩
    exact hlength.symm ▸ wrapAt_lt (by omega) hend
  have hheld : q'.held = q.held ++ newChunk := ringContents_overwrite h.push_lt h.pop_lt hend hfree
  have hnonEmpty : q'.nonEmpty = true := by
    have hpos := List.length_pos_iff.2 hnil
    refine decide_eq_true ?_
    rw [← hbuffer.length_held, hheld, List.length_append]
    omega
  have hmax := h.length_lt
  have hpush := h.push_lt
  have hsub : newChunk.length ≤ sizeSub q.buffer.length q.nextByteToPush := by
    rw [sizeSub_of_le hpush.le (by unfold maxSize at hmax; omega)]
    omega
  refine ⟨.Success, q', ?_, iff_of_false (by decide) hnil, hbuffer, hlength, hheld⟩
  rw [if_neg hnil, assert_of hsub, ok_bind, if_neg (by omega)]
  dsimp only
  rw [assert_of hend, ok_bind, assert_of hnonEmpty]
  rfl

/-- **`pop` writes the first bytes held,** and no assertion of it fails. -/
theorem InBuffer.pop (h : q.InBuffer) (hne : q.nonEmpty = true) {written : ℕ} (hpos : 0 < written)
    (hk : written ≤ q.contiguousSpaceToPop) :
    ∃ q', q.pop written = .ok (q.held.take written, q') ∧ q'.InBuffer ∧
      q'.buffer.length = q.buffer.length ∧ q'.held = q.held.drop written := by
  obtain ⟨hend, hinside⟩ := h.contiguousSpaceToPop hk
  have hspace := h.contiguousSpaceToPop_pos hne
  have hsize := h.size
  refine ⟨{ q with nextByteToPop := wrapAt q.buffer.length (q.nextByteToPop + written) }, ?_,
    ⟨hsize, h.length_lt, h.push_lt, wrapAt_lt (by omega) hend⟩, rfl,
    ringContents_drop h.push_lt hinside⟩
  rw [ByteStreamQueue.pop, assert_of hne, ok_bind]
  dsimp only
  rw [assert_of (Nat.le_add_right _ _), ok_bind, if_neg (by omega), if_neg hpos.ne', assert_of hend,
    ok_bind, held, take_ringContents hinside]
  rfl

end ByteStreamQueue

/-- A queue, the bytes that were pushed into it and the bytes that were popped. -/
structure Transfer where
  queue : ByteStreamQueue
  pushed : Bytes := []
  popped : Bytes := []
deriving DecidableEq

namespace Transfer

/-- What the poller does to the queue: `newChunk` is what `read` returns, nothing at the end
of the file, and `written` what `write` does. -/
inductive Call where
  | push (newChunk : Bytes)
  | pop (written : ℕ)
deriving DecidableEq

/-- `push` when `space_available`, `pop` when `non_empty`; the system calls move at most
what they are offered. -/
def Allowed (q : ByteStreamQueue) : Call → Prop
  | .push newChunk => q.spaceAvailable = true ∧ newChunk.length ≤ q.contiguousSpaceToPush
  | .pop written => q.nonEmpty = true ∧ 0 < written ∧ written ≤ q.contiguousSpaceToPop

instance (q : ByteStreamQueue) : (c : Call) → Decidable (Allowed q c)
  | .push _ => inferInstanceAs (Decidable (_ ∧ _))
  | .pop _ => inferInstanceAs (Decidable (_ ∧ _))

/-- One call. -/
def call (s : Transfer) : Call → Except Fault Transfer
  | .push newChunk => do
      let (_, queue) ← s.queue.push newChunk
      return { s with queue := queue, pushed := s.pushed ++ newChunk }
  | .pop written => do
      let (bytes, queue) ← s.queue.pop written
      return { s with queue := queue, popped := s.popped ++ bytes }

/-- A call that is allowed and returns. -/
def Step (s : Transfer) (c : Call) (s' : Transfer) : Prop :=
  Allowed s.queue c ∧ s.call c = .ok s'

/-- The bytes pushed are those popped and those held. -/
structure Relays (n : ℕ) (s : Transfer) : Prop where
  inBuffer : s.queue.InBuffer
  length : s.queue.buffer.length = n
  pushed : s.pushed = s.popped ++ s.queue.held

variable {n : ℕ} {s s' : Transfer} {c : Call}

/-- **An allowed call returns, and relays.** -/
theorem Relays.call (h : Relays n s) (hc : Allowed s.queue c) :
    ∃ s', s.call c = .ok s' ∧ Relays n s' := by
  cases c with
  | push newChunk =>
      obtain ⟨r, q, hq, -, hbuffer, hlength, hheld⟩ := h.inBuffer.push hc.1 hc.2
      refine ⟨{ s with queue := q, pushed := s.pushed ++ newChunk }, ?_, hbuffer,
        hlength.trans h.length, ?_⟩
      · rw [Transfer.call, hq]
        rfl
      · change s.pushed ++ newChunk = s.popped ++ q.held
        rw [hheld, h.pushed, List.append_assoc]
  | pop written =>
      obtain ⟨q, hq, hbuffer, hlength, hheld⟩ := h.inBuffer.pop hc.1 hc.2.1 hc.2.2
      refine ⟨{ s with queue := q, popped := s.popped ++ s.queue.held.take written }, ?_, hbuffer,
        hlength.trans h.length, ?_⟩
      · rw [Transfer.call, hq]
        rfl
      · change s.pushed = s.popped ++ s.queue.held.take written ++ q.held
        rw [hheld, h.pushed, List.append_assoc, List.take_append_drop]

/-- A new queue holds nothing. -/
theorem relays_new {q : ByteStreamQueue} (hmax : n < maxSize)
    (hnew : ByteStreamQueue.new n = .ok q) : Relays n { queue := q } := by
  obtain ⟨_, hsize, hnew⟩ := bind_eq_ok.1 hnew
  have hsize := assert_eq_ok.1 hsize
  cases hnew
  have hlength : (List.replicate n (0 : UInt8)).length = n := List.length_replicate
  have hpos : 0 < n := by omega
  refine ⟨⟨hlength.symm ▸ hsize, hlength.symm ▸ hmax, hlength.symm ▸ hpos, hlength.symm ▸ hpos⟩,
    hlength, ?_⟩
  simp [ByteStreamQueue.held, ringContents]

/-- **A queue relays the bytes in order.**  For a buffer of `n > 1` bytes and any sequence of
calls, the bytes popped are the first ones that were pushed; the queue holds the others, in
order, and they are as many as `available_to_pop()` says.  The two counts add up to `n - 1`,
the indices stay in the buffer, and whatever call is allowed returns. -/
theorem relays_in_order (hn : 1 < n) (hmax : n < maxSize) :
    ∃ q, ByteStreamQueue.new n = .ok q ∧ ∀ (calls : List Call) (s : Transfer),
      Run Step { queue := q } calls s →
        s.pushed = s.popped ++ s.queue.held ∧ s.queue.held.length = s.queue.availableToPop ∧
        s.queue.availableToPop + s.queue.availableToPush = n - 1 ∧
        s.queue.nextByteToPush < n ∧ s.queue.nextByteToPop < n ∧
        ∀ c, Allowed s.queue c → ∃ s', s.call c = .ok s' := by
  have hnew : ByteStreamQueue.new n = .ok { buffer := List.replicate n 0 } := by
    rw [ByteStreamQueue.new, assert_of hn]
    rfl
  refine ⟨_, hnew, fun calls s hrun => ?_⟩
  have hs : Relays n s := by
    refine hrun.invariant (I := Relays n) (fun s c s' hs hstep => ?_) (relays_new hmax hnew)
    obtain ⟨s₁, hcall, hs₁⟩ := hs.call hstep.1
    rw [hstep.2] at hcall
    cases hcall
    exact hs₁
  have havailable := hs.inBuffer.available_lt
  have hpush := hs.inBuffer.availableToPush
  rw [hs.length] at havailable hpush
  refine ⟨hs.pushed, hs.inBuffer.length_held, by omega, ?_, ?_, fun c hc => ?_⟩
  · exact hs.length ▸ hs.inBuffer.push_lt
  · exact hs.length ▸ hs.inBuffer.pop_lt
  · obtain ⟨s', hs', -⟩ := hs.call hc
    exact ⟨s', hs'⟩

/-- A buffer of three bytes holds two.  The third byte pushed goes to its end, and the
fourth one to its start. -/
theorem relays_in_order_three :
    (∃ q, ByteStreamQueue.new 3 = .ok q ∧ ∀ (calls : List Call) (s : Transfer),
      Run Step { queue := q } calls s →
        s.pushed = s.popped ++ s.queue.held ∧ s.queue.held.length = s.queue.availableToPop ∧
        s.queue.availableToPop + s.queue.availableToPush = 3 - 1 ∧
        s.queue.nextByteToPush < 3 ∧ s.queue.nextByteToPop < 3 ∧
        ∀ c, Allowed s.queue c → ∃ s', s.call c = .ok s') ∧
    Run Step { queue := { buffer := [0, 0, 0] } }
      [.push [1, 2], .pop 1, .push [3], .pop 1, .push [4]]
      { queue := { buffer := [4, 2, 3], nextByteToPush := 1, nextByteToPop := 2 },
        pushed := [1, 2, 3, 4], popped := [1, 2] } := by
  refine ⟨relays_in_order (by decide) (by decide), ?_⟩
  refine .cons ⟨by decide, rfl⟩ (.cons ⟨by decide, rfl⟩ (.cons ⟨by decide, rfl⟩ ?_))
  exact .cons ⟨by decide, rfl⟩ (.cons ⟨by decide, rfl⟩ (.nil _))

end Transfer

end V2Proxy
