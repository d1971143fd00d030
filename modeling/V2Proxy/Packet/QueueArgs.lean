/-
# The arguments of a queue

`DroppingPacketQueue::get_arg` searches the argument string for a name and reads the
digits behind it.  For a string as the usage of `mm-link` has it,
`NAME=NUMBER[, NAME2=NUMBER2, ...]`, the search finds the right place: no documented name
occurs in another one, and none has a character of what stands between two names
(`find_name`).

The number is a `long` that is returned as an `unsigned int`.  So what the user wrote is
what the queue gets if and only if no number is one of those that a `long` can hold and
an `unsigned int` cannot (`asWritten_iff`); `bytes=4294967296` is no limit at all.
-/

import V2Proxy.Packet.DroppingPacketQueue
import V2Proxy.Util.Numerals

namespace V2Proxy

open Foundations

/-- `NAME` in `usage_error` of `src/frontend/linkshell.cc`. -/
inductive ArgName
  | bytes
  | packets
  | target
  | interval
  | qdelay_ref
  | max_burst
deriving DecidableEq

/-- The name as it is written. -/
def ArgName.str : ArgName → Bytes
  | .bytes => ascii "bytes"
  | .packets => ascii "packets"
  | .target => ascii "target"
  | .interval => ascii "interval"
  | .qdelay_ref => ascii "qdelay_ref"
  | .max_burst => ascii "max_burst"

/-- `NAME=NUMBER`. -/
structure QueueArg where
  name : ArgName
  number : Bytes
  ne_nil : number ≠ []
  digits : ∀ d ∈ number, (digitValue 10 d).isSome = true

namespace QueueArg

/-- The argument as it is written. -/
def str (a : QueueArg) : Bytes := a.name.str ++ ascii "=" ++ a.number

/-- The number that is meant. -/
def value (a : QueueArg) : ℕ := digitsValue 10 a.number

end QueueArg

/-- `QUEUE_ARGS`. -/
def queueArgs (args : List QueueArg) : Bytes := (ascii ", ").intercalate (args.map (·.str))

/-- What stands between the number and the next name. -/
def comma (rest : List QueueArg) : Bytes := if rest = [] then [] else ascii ", "

/-- What stands behind the name of an argument, up to the next one. -/
def QueueArg.behind (a : QueueArg) (rest : List QueueArg) : Bytes :=
  ascii "=" ++ (a.number ++ comma rest)

theorem queueArgs_cons (a : QueueArg) (rest : List QueueArg) :
    queueArgs (a :: rest) = a.name.str ++ (a.behind rest ++ queueArgs rest) := by
  rcases rest with _ | ⟨b, rest⟩
  · simp [queueArgs, QueueArg.str, QueueArg.behind, comma]
  · simp [queueArgs, QueueArg.str, QueueArg.behind, comma, List.intercalate_cons_cons]

namespace ArgName

theorem str_ne_nil (n : ArgName) : n.str ≠ [] := by
  cases n <;> decide

/-- **No name occurs in another one.** -/
theorem not_infix_str {n m : ArgName} (h : m ≠ n) : ¬ n.str <:+: m.str := by
  cases n <;> cases m <;> first | exact absurd rfl h | decide

/-- Every character of a name is a letter or an underscore. -/
theorem letter_of_mem {n : ArgName} {c : UInt8} (h : c ∈ n.str) :
    digitValue 10 c = none ∧ c ∉ ascii "=" ∧ c ∉ ascii ", " := by
  have hall : ∀ c ∈ n.str, digitValue 10 c = none ∧ c ∉ ascii "=" ∧ c ∉ ascii ", " := by
    cases n <;> decide +kernel
  exact hall c h

/-- What stands between two names has no character of a name. -/
theorem not_mem_behind (n : ArgName) (a : QueueArg) (rest : List QueueArg) :
    ∀ c ∈ n.str, c ∉ a.behind rest := by
  intro c hc hmem
  obtain ⟨hdigit, hequals, hcomma⟩ := letter_of_mem hc
  rw [QueueArg.behind, List.mem_append, List.mem_append] at hmem
  rcases hmem with h | h | h
  · exact hequals h
  · have hsome := a.digits c h
    rw [hdigit] at hsome
    cases hsome
  · rw [comma] at h
    split_ifs at h
    · cases h
    · exact hcomma h

end ArgName

theorem QueueArg.behind_ne_nil (a : QueueArg) (rest : List QueueArg) : a.behind rest ≠ [] :=
  List.cons_ne_nil _ _

/-- **A name that is not given is not found.** -/
theorem find_absent {n : ArgName} {args : List QueueArg} (h : ∀ a ∈ args, a.name ≠ n) :
    find n.str (queueArgs args) = none := by
  rw [find_eq_none_iff]
  induction args with
  | nil =>
      rw [show queueArgs [] = [] from rfl, List.infix_nil]
      exact n.str_ne_nil
  | cons a args ih =>
      rw [queueArgs_cons]
      intro hinfix
      rcases infix_append_cases (a.behind_ne_nil args) (n.not_mem_behind a args) hinfix with h' | h'
      · exact ArgName.not_infix_str (h a (by simp)) h'
      · exact ih (fun b hb => h b (List.mem_cons_of_mem a hb)) h'

/-- The number ends where the next argument begins. -/
theorem head?_comma (rest : List QueueArg) :
    ∀ c, (comma rest ++ queueArgs rest).head? = some c → digitValue 10 c = none := by
  intro c hc
  rcases rest with _ | ⟨b, rest⟩
  · cases hc
  · obtain rfl : 44 = c := Option.some.inj hc
    decide

/-- **A name that is given is found where it is given.** -/
theorem find_name {a : QueueArg} {args : List QueueArg} (ha : a ∈ args)
    (hdistinct : (args.map (·.name)).Nodup) :
    ∃ front rest, queueArgs args = front ++ (a.name.str ++ (ascii "=" ++ (a.number ++ rest))) ∧
      find a.name.str (queueArgs args) = some front.length ∧
      ∀ c, rest.head? = some c → digitValue 10 c = none := by
  induction args with
  | nil => cases ha
  | cons b args ih =>
      rw [List.map_cons, List.nodup_cons] at hdistinct
      rw [queueArgs_cons]
      rcases List.mem_cons.1 ha with rfl | ha
      · refine ⟨[], comma args ++ queueArgs args, ?_, ?_, head?_comma args⟩
        · simp only [QueueArg.behind, List.nil_append, List.append_assoc]
        · exact find_eq_some_iff.2 ⟨Nat.zero_le _, List.prefix_append _ _, fun j hj => by
            exact absurd hj (Nat.not_lt_zero j)⟩
      · obtain ⟨front, rest, htext, hfind, hrest⟩ := ih ha hdistinct.2
        have hne : b.name ≠ a.name := by
          intro h
          exact hdistinct.1 (h ▸ List.mem_map_of_mem ha)
        refine ⟨b.name.str ++ (b.behind args ++ front), rest, ?_, ?_, hrest⟩
        · simp only [htext, List.append_assoc]
        · rw [find_append_of_disjoint a.name.str_ne_nil (b.behind_ne_nil args)
            (a.name.not_mem_behind b args) (ArgName.not_infix_str hne) hfind]
          simp only [List.length_append, Nat.add_assoc]

/-- **What `get_arg` makes of the number of an argument that is given.** -/
theorem getArg_given {a : QueueArg} {args : List QueueArg} (ha : a ∈ args)
    (hdistinct : (args.map (·.name)).Nodup) (hmax : (queueArgs args).length < maxSize) :
    DroppingPacketQueue.getArg (queueArgs args) a.name.str =
      if a.value < 2 ^ 63 then .ok (a.value % 2 ^ 32) else .error (.unixError (ascii "strtol")) := by
  obtain ⟨front, rest, htext, hfind, hrest⟩ := find_name ha hdistinct
  have hname : (queueArgs args).drop (front.length + a.name.str.length) =
      ascii "=" ++ (a.number ++ rest) := by
    rw [htext, ← List.append_assoc front, List.drop_left' (List.length_append)]
  have hequals : (ascii "=" ++ (a.number ++ rest)).take 1 = ascii "=" := rfl
  have hnumber : (queueArgs args).drop (front.length + a.name.str.length + 1) = a.number ++ rest := by
    rw [← List.drop_drop, hname]
    rfl
  have hlength : front.length + a.name.str.length + 1 + (a.number ++ rest).length =
      (queueArgs args).length := by
    have h := congrArg List.length hname
    rw [List.length_drop, List.length_append] at h
    have hone : (ascii "=").length = 1 := rfl
    omega
  have hfits : (a.number ++ rest).length ≤ npos := by
    unfold maxSize at hmax
    unfold npos
    omega
  have hdigits : (a.number ++ rest).takeWhile (fun c => (digitValue 10 c).isSome) = a.number :=
    takeWhile_append_of_head? a.digits fun c hc => by rw [hrest c hc, Option.isSome_none]
  have hvalue : ((a.value : ℤ) % 2 ^ 32).toNat = a.value % 2 ^ 32 := by omega
  rw [DroppingPacketQueue.getArg, hfind]
  change (substr _ _ _ >>= _) = _
  rw [substr, if_pos (by omega), hname, hequals, ok_bind, if_neg (not_not.2 rfl), substr, if_pos (by omega),
    hnumber, ok_bind, List.take_of_length_le hfits]
  simp only [hdigits, if_neg a.ne_nil, myatoi_digits a.ne_nil a.digits]
  rw [← QueueArg.value]
  split_ifs with hlong
  · rw [ok_bind, ← hvalue]
    rfl
  · rfl

/-- **What the user wrote is what the queue gets:** for each documented name, the number
that is given for it or an exception, and zero if none is given. -/
def AsWritten (args : List QueueArg) : Prop :=
  ∀ n : ArgName,
    (∀ a ∈ args, a.name = n →
      (∃ e, e.Raised ∧ DroppingPacketQueue.getArg (queueArgs args) n.str = .error e) ∨
        DroppingPacketQueue.getArg (queueArgs args) n.str = .ok a.value) ∧
    ((∀ a ∈ args, a.name ≠ n) → DroppingPacketQueue.getArg (queueArgs args) n.str = .ok 0)

/-- **The queue gets what the user wrote just if** each number fits an `unsigned int`, or
does not fit a `long`. -/
theorem asWritten_iff {args : List QueueArg} (hdistinct : (args.map (·.name)).Nodup)
    (hmax : (queueArgs args).length < maxSize) :
    AsWritten args ↔ ∀ a ∈ args, a.value < 2 ^ 32 ∨ 2 ^ 63 ≤ a.value := by
  constructor
  · intro h a ha
    have hgiven := getArg_given ha hdistinct hmax
    rcases (h a.name).1 a ha rfl with ⟨e, -, herror⟩ | hok
    · rw [herror] at hgiven
      split_ifs at hgiven with hlong
      right
      omega
    · rw [hok] at hgiven
      split_ifs at hgiven with hlong
      left
      have hnarrow := Except.ok.inj hgiven
      omega
  · intro h n
    constructor
    · rintro a ha rfl
      rw [getArg_given ha hdistinct hmax]
      rcases h a ha with hint | hlong
      · right
        rw [if_pos (by omega), Nat.mod_eq_of_lt hint]
      · left
        rw [if_neg (by omega)]
        exact ⟨.unixError (ascii "strtol"), trivial, rfl⟩
    · intro habsent
      rw [DroppingPacketQueue.getArg, find_absent habsent]

/-- Two limits, as they are written for a droptail queue. -/
def twoLimits : List QueueArg :=
  [⟨.packets, ascii "100", by decide, by decide +kernel⟩, ⟨.bytes, ascii "150000", by decide, by decide +kernel⟩]

theorem asWritten_iff_twoLimits : AsWritten twoLimits := by
  rw [asWritten_iff (by decide) (by decide)]
  decide

/-- **A limit of four gigabytes is no limit.** -/
theorem limit_lost : ¬ AsWritten [⟨.bytes, ascii "4294967296", by decide, by decide +kernel⟩] := by
  intro h
  have hzero : DroppingPacketQueue.getArg (ascii "bytes=4294967296") (ascii "bytes") = .ok 0 := by
    decide +kernel
  rcases (h .bytes).1 _ List.mem_cons_self rfl with ⟨e, -, herror⟩ | hok
  · exact absurd (hzero.symm.trans herror) (by simp)
  · exact absurd (hzero.symm.trans hok) (by decide +kernel)

end V2Proxy
