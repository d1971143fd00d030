/-
# Byte strings and the ways a call can fail

A `std::string` of the source is a list of bytes, a `size_t` that counts bytes of
a string is a natural number, and the fixed-width conversions are written out
(`toUInt32`, `toUInt64`, `toInt32`, `sizeSub`).

A call fails by an exception, by a failed `assert` (which aborts the process) or
by undefined behaviour; `Fault` keeps the three apart and keeps the text.
-/

import V2Proxy.Foundations.Search
import V2Proxy.Foundations.Loop
import Mathlib.Data.UInt

namespace V2Proxy

open Foundations

/-- A `std::string`. -/
abbrev Bytes := List UInt8

/-- The bytes of a string literal. -/
def ascii (s : String) : Bytes := s.toByteArray.data.toList

/-- `static const std::string CRLF = "\r\n"` of `src/http/http_message.hh`. -/
def CRLF : Bytes := [13, 10]

@[simp] theorem length_CRLF : CRLF.length = 2 := rfl

/-- The bytes of an unfinished line come in front of the first line that is
appended. -/
theorem find_CRLF_append {old new : Bytes} {c : UInt8} {i : ℕ} (hold : find CRLF old = none)
    (hc : c ≠ 10) (h : find CRLF (c :: new) = some i) :
    find CRLF (old ++ c :: new) = some (old.length + i) := by
  induction old with
  | nil => rw [List.nil_append, List.length_nil, Nat.zero_add, h]
  | cons x old ih =>
      have hnot := find_eq_none_iff.1 hold
      have hold' : find CRLF old = none :=
        find_eq_none_of_infix hold (List.suffix_cons x old).isInfix
      have hfirst : ¬ CRLF <+: x :: (old ++ c :: new) := by
        intro hpre
        cases old with
        | nil =>
            rw [List.nil_append, CRLF, List.cons_prefix_cons, List.cons_prefix_cons] at hpre
            exact hc hpre.2.1.symm
        | cons y old =>
            rw [List.cons_append, CRLF, List.cons_prefix_cons, List.cons_prefix_cons] at hpre
            refine hnot (List.IsPrefix.isInfix ?_)
            rw [CRLF, List.cons_prefix_cons, List.cons_prefix_cons]
            exact ⟨hpre.1, hpre.2.1, List.nil_prefix⟩
      rw [List.cons_append, find, if_neg hfirst, ih hold', List.length_cons, Option.map_some]
      congr 1
      omega

/-- A line ends at its CRLF. -/
theorem find_CRLF_line {line : Bytes} (h : find CRLF line = none) (rest : Bytes) :
    find CRLF (line ++ (CRLF ++ rest)) = some line.length := by
  have hprefix : CRLF <+: 13 :: (10 :: rest) := List.prefix_append CRLF rest
  have hfirst : find CRLF (13 :: (10 :: rest)) = some 0 := by
    rw [find, if_pos hprefix]
  exact find_CRLF_append h (by decide) hfirst

/-- Why a call did not return. -/
inductive Fault where
  /-- `throw runtime_error( what )` -/
  | runtimeError (what : Bytes)
  /-- `throw unix_error( attempt )` -/
  | unixError (attempt : Bytes)
  /-- `std::out_of_range` from the standard library -/
  | outOfRange (what : Bytes)
  /-- `std::invalid_argument` from the standard library -/
  | invalidArgument (what : Bytes)
  /-- a failed `assert`, which aborts the process -/
  | assertion (text : Bytes)
  /-- a call the standard library gives no meaning to -/
  | undefinedBehaviour (what : Bytes)
deriving DecidableEq

/-- The call threw an exception. -/
def Fault.Raised : Fault → Prop
  | .assertion _ | .undefinedBehaviour _ => False
  | _ => True

/-- `assert( p )`. -/
def assert (p : Prop) [Decidable p] (text : String) : Except Fault Unit :=
  if p then .ok () else .error (.assertion (ascii text))

theorem assert_of {p : Prop} [Decidable p] (h : p) (text : String) : assert p text = .ok () :=
  if_pos h

theorem assert_of_not {p : Prop} [Decidable p] (h : ¬ p) (text : String) :
    assert p text = .error (.assertion (ascii text)) :=
  if_neg h

theorem assert_eq_ok {p : Prop} [Decidable p] {text : String} {u : Unit} :
    assert p text = .ok u ↔ p := by
  by_cases h : p
  · rw [assert_of h]
    exact iff_of_true rfl h
  · rw [assert_of_not h]
    exact iff_of_false (by simp) h

/-- `s.substr( pos, n )`, which throws when `pos` is past the end. -/
def substr (s : Bytes) (pos n : ℕ) : Except Fault Bytes :=
  if pos ≤ s.length then .ok ((s.drop pos).take n)
  else .error (.outOfRange (ascii "basic_string::substr"))

/-- `s.find( pat, pos )`. -/
def findFrom (pat s : Bytes) (pos : ℕ) : Option ℕ :=
  if pos ≤ s.length then (find pat (s.drop pos)).map (pos + ·) else none

/-- A place behind `pos` is one in the text from `pos` on. -/
theorem findFrom_eq {pat s : Bytes} {pos i : ℕ} (h : findFrom pat s pos = some i) :
    ∃ j, find pat (s.drop pos) = some j ∧ i = pos + j := by
  rw [findFrom] at h
  split_ifs at h
  obtain ⟨j, hj, rfl⟩ := Option.map_eq_some_iff.1 h
  exact ⟨j, hj, rfl⟩

/-- What is found behind `pos` is behind it, and in the text. -/
theorem findFrom_bounds {pat s : Bytes} {pos i : ℕ} (h : findFrom pat s pos = some i) :
    pos ≤ i ∧ i + pat.length ≤ s.length := by
  have hpos : pos ≤ s.length := by
    rw [findFrom] at h
    split_ifs at h with hpos
    exact hpos
  obtain ⟨j, hj, rfl⟩ := findFrom_eq h
  have hle := add_length_le_of_find hj
  rw [List.length_drop] at hle
  omega

/-- **What `find` finds from `pos` on:** the first place from there. -/
theorem findFrom_eq_some {pat s : Bytes} {pos i : ℕ} (hpos : pos ≤ i) (hi : i ≤ s.length)
    (hpat : pat <+: s.drop i) (hfirst : ∀ j, pos ≤ j → j < i → ¬ pat <+: s.drop j) :
    findFrom pat s pos = some i := by
  have hfind : find pat (s.drop pos) = some (i - pos) := by
    refine find_eq_some_iff.2 ⟨by rw [List.length_drop]; omega, ?_, fun j hj hp => ?_⟩
    · rwa [List.drop_drop, show pos + (i - pos) = i by omega]
    · rw [List.drop_drop] at hp
      exact hfirst (pos + j) (by omega) (by omega) hp
  rw [findFrom, if_pos (by omega), hfind, Option.map_some, show pos + (i - pos) = i by omega]

/-- What is found stands there. -/
theorem prefix_of_findFrom {pat s : Bytes} {pos i : ℕ} (h : findFrom pat s pos = some i) :
    pat <+: s.drop i := by
  obtain ⟨j, hj, rfl⟩ := findFrom_eq h
  rw [← List.drop_drop]
  exact (find_eq_some_iff.1 hj).2.1

/-- `s.find( pat ) != npos`. -/
def contains (pat s : Bytes) : Bool := (find pat s).isSome

/-- `FileDescriptor::BUFFER_SIZE`, the most bytes one `read` returns. -/
def bufferSize : ℕ := 1024 * 1024

/-- `std::string::npos`, the largest `size_t`. -/
def npos : ℕ := 2 ^ 64 - 1

/-- A `std::string` is shorter than this: `max_size()` is less than half the range of
`size_t`. -/
def maxSize : ℕ := 2 ^ 63

/-- `a - b` on `size_t`. -/
def sizeSub (a b : ℕ) : ℕ := (a + 2 ^ 64 - b) % 2 ^ 64

theorem sizeSub_of_le {a b : ℕ} (h : b ≤ a) (ha : a < 2 ^ 64) : sizeSub a b = a - b := by
  rw [sizeSub, show a + 2 ^ 64 - b = (a - b) + 2 ^ 64 by omega, Nat.add_mod_right,
    Nat.mod_eq_of_lt (by omega)]

/-- Conversion to `uint32_t`. -/
def toUInt32 (z : ℤ) : UInt32 := UInt32.ofNat (z % 2 ^ 32).toNat

/-- Conversion to `uint64_t` or `size_t`. -/
def toUInt64 (z : ℤ) : ℕ := (z % 2 ^ 64).toNat

/-- Conversion to `int`, two's complement. -/
def toInt32 (z : ℤ) : ℤ := z.bmod (2 ^ 32)

/-- The lines that `getline` reads: what follows the last line ending is a line
unless it is empty. -/
def getLines (text : Bytes) : List Bytes :=
  let lines := text.splitOn 10
  if lines.getLast? = some [] then lines.dropLast else lines

/-- **The lines that are written are the lines that are read.** -/
theorem getLines_flatMap {lines : List Bytes} (h : ∀ line ∈ lines, 10 ∉ line) :
    getLines (lines.flatMap (· ++ [10])) = lines := by
  have hsplit : (lines.flatMap (· ++ [10])).splitOn 10 = lines ++ [[]] := by
    induction lines with
    | nil => exact List.splitOn_nil 10
    | cons line lines ih =>
        rw [List.flatMap_cons, List.append_assoc, List.singleton_append,
          List.splitOn_append_cons_self_of_not_mem (h line List.mem_cons_self),
          ih fun line' hline' => h line' (List.mem_cons_of_mem line hline'), List.cons_append]
  rw [getLines, hsplit]
  simp

end V2Proxy
