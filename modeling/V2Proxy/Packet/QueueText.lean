/-
# What a packet queue says of itself

`to_string` of the packet queues, which `mm-link` writes into its log.  A droptail or
drophead queue is told by its limits, and these are written as the arguments of a queue:
`get_packet_queue` makes the same queue of them (`getPacketQueue_toString`).  Of the other
arguments of a CoDel or PIE queue nothing is written.
-/

import V2Proxy.Packet.AbstractPacketQueue
import V2Proxy.Packet.QueueArgs
import Mathlib.Data.Nat.Digits.Lemmas

namespace V2Proxy

open Foundations

/-- `DroppingPacketQueue::to_string`; `type` is what the virtual function of this name
returns. -/
def DroppingPacketQueue.toString (q : DroppingPacketQueue) (type : Bytes) : Bytes :=
  type ++ ascii " [" ++
    (if q.byteLimit ≠ 0 then ascii "bytes=" ++ decimal q.byteLimit else []) ++
    (if q.packetLimit ≠ 0 then
      (if q.byteLimit ≠ 0 then ascii ", " else []) ++ ascii "packets=" ++ decimal q.packetLimit
    else []) ++ ascii "]"

/-- The virtual function `to_string`. -/
def AbstractPacketQueue.toString : AbstractPacketQueue → Bytes
  | .infinite _ => ascii "infinite"
  | .droptail q => q.toString (ascii "droptail")
  | .drophead q => q.toString (ascii "drophead")
  | .codel q => q.toString (ascii "codel")
  | .pie q => q.toString (ascii "pie")

theorem length_decimal_le {n k : ℕ} (hk : 0 < k) (h : n < 10 ^ k) : (decimal n).length ≤ k := by
  rw [decimal]
  split_ifs with hn
  · exact hk
  · rw [List.length_map, List.length_reverse]
    exact (Nat.digits_length_le_iff (by norm_num) n).2 h

namespace DroppingPacketQueue

/-- `NAME=NUMBER` for a limit. -/
def limit (name : ArgName) (n : ℕ) : QueueArg where
  name := name
  number := decimal n
  ne_nil := decimal_ne_nil n
  digits _ hd := isSome_of_mem_decimal hd

/-- The limits, as arguments. -/
def limits (q : DroppingPacketQueue) : List QueueArg :=
  (if q.byteLimit ≠ 0 then [limit .bytes q.byteLimit] else []) ++
    (if q.packetLimit ≠ 0 then [limit .packets q.packetLimit] else [])

theorem toString_eq (q : DroppingPacketQueue) (type : Bytes) :
    q.toString type = type ++ ascii " [" ++ queueArgs q.limits ++ ascii "]" := by
  have hequals : ∀ name : ArgName, ∀ n, (limit name n).str = name.str ++ ascii "=" ++ decimal n :=
    fun _ _ => rfl
  have hbytes : ascii "bytes=" = ascii "bytes" ++ ascii "=" := by decide +kernel
  have hpackets : ascii "packets=" = ascii "packets" ++ ascii "=" := by decide +kernel
  rw [toString, limits]
  split_ifs <;>
    simp [queueArgs, List.intercalate_cons_cons, hequals, ArgName.str, hbytes, hpackets]

theorem mem_limits {q : DroppingPacketQueue} {a : QueueArg} :
    a ∈ q.limits ↔ q.byteLimit ≠ 0 ∧ a = limit .bytes q.byteLimit ∨
      q.packetLimit ≠ 0 ∧ a = limit .packets q.packetLimit := by
  rw [limits]
  split_ifs with hbytes hpackets hpackets <;> simp [hbytes, hpackets]

/-- The text of two `unsigned int`s is short. -/
theorem length_limits {q : DroppingPacketQueue} (hbytes : q.byteLimit < 2 ^ 32)
    (hpackets : q.packetLimit < 2 ^ 32) : (queueArgs q.limits).length < maxSize := by
  have hlength : ∀ (name : ArgName) {n : ℕ}, n < 2 ^ 32 → (limit name n).str.length ≤ 21 := by
    intro name n hn
    have hname : name.str.length ≤ 10 := by cases name <;> decide +kernel
    have hequals : (ascii "=").length = 1 := by decide +kernel
    have hdecimal := length_decimal_le (n := n) (k := 10) (by omega) (by omega)
    rw [QueueArg.str, List.length_append, List.length_append, hequals]
    change name.str.length + 1 + (decimal n).length ≤ 21
    omega
  have hcomma : (ascii ", ").length = 2 := by decide +kernel
  have h₁ := hlength .bytes hbytes
  have h₂ := hlength .packets hpackets
  rw [maxSize, limits]
  split_ifs <;> simp [queueArgs, List.intercalate_cons_cons, hcomma] <;> omega

/-- **What `get_arg` reads of a limit,** zero if it is not there. -/
theorem getArg_limits {q : DroppingPacketQueue} (hbytes : q.byteLimit < 2 ^ 32)
    (hpackets : q.packetLimit < 2 ^ 32) :
    getArg (queueArgs q.limits) (ascii "bytes") = .ok q.byteLimit ∧
      getArg (queueArgs q.limits) (ascii "packets") = .ok q.packetLimit := by
  have hdistinct : (q.limits.map (·.name)).Nodup := by
    rw [limits]
    split_ifs <;> simp [limit]
  have hgiven : ∀ {name : ArgName} {n : ℕ}, limit name n ∈ q.limits → n < 2 ^ 32 →
      getArg (queueArgs q.limits) name.str = .ok n := by
    intro name n hmem hn
    have hvalue : (limit name n).value = n := digitsValue_decimal n
    have h := getArg_given hmem hdistinct (length_limits hbytes hpackets)
    rw [hvalue, if_pos (by omega), Nat.mod_eq_of_lt hn] at h
    exact h
  have habsent : ∀ name : ArgName, (∀ a ∈ q.limits, a.name ≠ name) →
      getArg (queueArgs q.limits) name.str = .ok 0 := by
    intro name h
    rw [getArg, find_absent h]
  constructor
  · by_cases hzero : q.byteLimit = 0
    · rw [hzero]
      refine habsent .bytes fun a ha => ?_
      rcases mem_limits.1 ha with ⟨hne, -⟩ | ⟨-, rfl⟩
      · exact absurd hzero hne
      · simp [limit]
    · exact hgiven (mem_limits.2 (Or.inl ⟨hzero, rfl⟩)) hbytes
  · by_cases hzero : q.packetLimit = 0
    · rw [hzero]
      refine habsent .packets fun a ha => ?_
      rcases mem_limits.1 ha with ⟨-, rfl⟩ | ⟨hne, -⟩
      · simp [limit]
      · exact absurd hzero hne
    · exact hgiven (mem_limits.2 (Or.inr ⟨hzero, rfl⟩)) hpackets

theorem getArg_lt {args name : Bytes} {n : ℕ} (h : getArg args name = .ok n) : n < 2 ^ 32 := by
  rw [getArg] at h
  split at h
  · cases h
    decide
  · obtain ⟨next, -, h⟩ := bind_eq_ok.1 h
    split_ifs at h
    obtain ⟨tail, -, h⟩ := bind_eq_ok.1 h
    dsimp only at h
    split_ifs at h
    obtain ⟨value, -, h⟩ := bind_eq_ok.1 h
    cases h
    omega

/-- **The limits of a new queue are arguments that make it.** -/
theorem new_limits {args : Bytes} {q : DroppingPacketQueue} (h : new args = .ok q) :
    new (queueArgs q.limits) = .ok q := by
  obtain ⟨packetLimit, hpackets, h⟩ := bind_eq_ok.1 h
  obtain ⟨byteLimit, hbytes, h⟩ := bind_eq_ok.1 h
  split_ifs at h with hzero
  cases h
  obtain ⟨hbytes', hpackets'⟩ := getArg_limits (getArg_lt hbytes) (getArg_lt hpackets)
    (q := { packetLimit := packetLimit, byteLimit := byteLimit })
  rw [new, hpackets', ok_bind, hbytes', ok_bind, if_neg hzero]
  rfl

end DroppingPacketQueue

/-- **What the log says of a droptail or drophead queue makes the same queue.** -/
theorem getPacketQueue_toString {type args : Bytes} {clock : Stream' ℕ} {draws : Stream' Float}
    {q : AbstractPacketQueue} (htype : type = ascii "droptail" ∨ type = ascii "drophead")
    (h : getPacketQueue type args clock draws = .ok q) :
    ∃ args', q.toString = type ++ ascii " [" ++ args' ++ ascii "]" ∧
      getPacketQueue type args' clock draws = .ok q := by
  have hne₁ : ascii "droptail" ≠ ascii "infinite" := by decide +kernel
  have hne₂ : ascii "drophead" ≠ ascii "infinite" := by decide +kernel
  have hne₃ : ascii "drophead" ≠ ascii "droptail" := by decide +kernel
  rcases htype with rfl | rfl
  · rw [getPacketQueue, if_neg hne₁, if_pos rfl] at h
    obtain ⟨q, hq, rfl⟩ := map_eq_ok.1 h
    refine ⟨queueArgs q.limits, q.toString_eq _, ?_⟩
    rw [getPacketQueue, if_neg hne₁, if_pos rfl, DroppingPacketQueue.new_limits hq]
    rfl
  · rw [getPacketQueue, if_neg hne₂, if_neg hne₃, if_pos rfl] at h
    obtain ⟨q, hq, rfl⟩ := map_eq_ok.1 h
    refine ⟨queueArgs q.limits, q.toString_eq _, ?_⟩
    rw [getPacketQueue, if_neg hne₂, if_neg hne₃, if_pos rfl, DroppingPacketQueue.new_limits hq]
    rfl

theorem getPacketQueue_toString_twoLimits :
    ∃ q : AbstractPacketQueue, q.toString = ascii "droptail [bytes=150000, packets=100]" ∧
      ∃ args', q.toString = ascii "droptail" ++ ascii " [" ++ args' ++ ascii "]" ∧
        getPacketQueue (ascii "droptail") args' (Stream'.const 0) (Stream'.const 0) = .ok q := by
  have hnew : DroppingPacketQueue.new (ascii "packets=100,bytes=150000") =
      .ok { packetLimit := 100, byteLimit := 150000 } := by decide +kernel
  have hqueue : getPacketQueue (ascii "droptail") (ascii "packets=100,bytes=150000")
      (Stream'.const 0) (Stream'.const 0) =
        .ok (.droptail { packetLimit := 100, byteLimit := 150000 }) := by
    rw [getPacketQueue, if_neg (by decide +kernel), if_pos rfl, hnew]
    rfl
  exact ⟨_, by decide +kernel, getPacketQueue_toString (Or.inl rfl) hqueue⟩

end V2Proxy
