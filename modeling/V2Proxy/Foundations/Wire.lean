/-
# Tagged fields

A message is a list of fields.  A field has a number and a payload, which is a number or a
string of bytes, and is written with a key, which says its number and which of the two the payload
is.  Numbers are written seven bits a byte, the lowest first, and a string after its length.  This
is the binary form of protocol buffers; their payloads of a fixed width and their groups are left
out.

What is written is read back (`decode_encode`), also with other bytes behind it
(`decodeField_encodeField`).
-/

import Mathlib.Algebra.Order.Group.Nat
import Mathlib.Data.List.Basic

namespace Foundations.Wire

/-! ### Numbers -/

/-- A number in at most `n + 1` bytes. -/
def varint : ℕ → ℕ → List UInt8
  | 0, v => [UInt8.ofNat v]
  | n + 1, v =>
      if v < 128 then [UInt8.ofNat v] else UInt8.ofNat (v % 128 + 128) :: varint n (v / 128)

/-- A number of at most `n + 1` bytes, and what is behind it. -/
def readVarint : ℕ → List UInt8 → Option (ℕ × List UInt8)
  | _, [] => none
  | 0, b :: rest => if b.toNat < 128 then some (b.toNat, rest) else none
  | n + 1, b :: rest =>
      if b.toNat < 128 then some (b.toNat, rest)
      else (readVarint n rest).map fun r => (b.toNat - 128 + 128 * r.1, r.2)

/-- A number below 256 is one byte. -/
theorem toNat_ofNat_of_lt {v : ℕ} (h : v < 256) : (UInt8.ofNat v).toNat = v := by
  rw [UInt8.toNat_ofNat', Nat.mod_eq_of_lt h]

/-- A varint has at least one byte. -/
theorem varint_ne_nil (n v : ℕ) : varint n v ≠ [] := by
  cases n with
  | zero => exact List.cons_ne_nil _ _
  | succ n =>
      rw [varint]
      split_ifs <;> exact List.cons_ne_nil _ _

/-- **A number is read back,** if it fits. -/
theorem readVarint_varint {n v : ℕ} (h : v < 128 ^ (n + 1)) (rest : List UInt8) :
    readVarint n (varint n v ++ rest) = some (v, rest) := by
  induction n generalizing v with
  | zero =>
      have hv : v < 128 := by simpa using h
      rw [varint, List.singleton_append, readVarint, toNat_ofNat_of_lt (by omega), if_pos hv]
  | succ n ih =>
      rw [varint]
      split_ifs with hv
      · rw [List.singleton_append, readVarint, toNat_ofNat_of_lt (by omega), if_pos hv]
      · have hdiv : v / 128 < 128 ^ (n + 1) := by
          rw [Nat.div_lt_iff_lt_mul (by omega), ← Nat.pow_succ]
          exact h
        rw [List.cons_append, readVarint, toNat_ofNat_of_lt (by omega), if_neg (by omega), ih hdiv,
          Option.map_some]
        congr 2
        omega

/-- A number of 64 bits. -/
theorem readVarint_of_lt {v : ℕ} (h : v < 2 ^ 64) (rest : List UInt8) :
    readVarint 9 (varint 9 v ++ rest) = some (v, rest) :=
  readVarint_varint (Nat.lt_trans h (by decide)) rest

/-! ### Fields -/

/-- What a field holds. -/
inductive Payload
  | varint (v : ℕ)
  | bytes (b : List UInt8)
deriving DecidableEq

/-- A field: its number and what it holds. -/
abbrev Field : Type := ℕ × Payload

/-- The field can be written: its key and its payload have at most 64 bits. -/
def Field.Fits (f : Field) : Prop :=
  f.1 < 2 ^ 29 ∧ match f.2 with
    | .varint v => v < 2 ^ 64
    | .bytes b => b.length < 2 ^ 64

/-- A field, with its key. -/
def encodeField : Field → List UInt8
  | (number, .varint v) => varint 9 (8 * number) ++ varint 9 v
  | (number, .bytes b) => varint 9 (8 * number + 2) ++ (varint 9 b.length ++ b)

/-- A message. -/
def encode (fields : List Field) : List UInt8 := fields.flatMap encodeField

/-- The payload behind a key. -/
def decodePayload (key : ℕ) (rest : List UInt8) : Option (Field × List UInt8) :=
  match key % 8 with
  | 0 => (readVarint 9 rest).map fun r => ((key / 8, .varint (r.1 % 2 ^ 64)), r.2)
  | 2 => (readVarint 9 rest).bind fun r =>
      if r.1 ≤ r.2.length then some ((key / 8, .bytes (r.2.take r.1)), r.2.drop r.1) else none
  | _ => none

/-- The field in front, and what is behind it. -/
def decodeField (bytes : List UInt8) : Option (Field × List UInt8) :=
  (readVarint 9 bytes).bind fun r => decodePayload r.1 r.2

/-- A message of at most so many fields. -/
def decodeFields : ℕ → List UInt8 → Option (List Field)
  | _, [] => some []
  | 0, _ :: _ => none
  | n + 1, b :: bytes => (decodeField (b :: bytes)).bind fun r => (decodeFields n r.2).map (r.1 :: ·)

/-- The fields of a message.  A field has at least one byte. -/
def decode (bytes : List UInt8) : Option (List Field) := decodeFields bytes.length bytes

/-- So has a field. -/
theorem encodeField_ne_nil (f : Field) : encodeField f ≠ [] := by
  obtain ⟨number, v | b⟩ := f
  · exact List.append_ne_nil_of_left_ne_nil (varint_ne_nil 9 _) _
  · exact List.append_ne_nil_of_left_ne_nil (varint_ne_nil 9 _) _

/-- The first field comes first. -/
theorem encode_cons (f : Field) (fields : List Field) :
    encode (f :: fields) = encodeField f ++ encode fields := List.flatMap_cons

/-- **A field is read back,** whatever is behind it. -/
theorem decodeField_encodeField {f : Field} (h : f.Fits) (rest : List UInt8) :
    decodeField (encodeField f ++ rest) = some (f, rest) := by
  obtain ⟨number, v | b⟩ := f
  · obtain ⟨hnumber, hv⟩ : number < 2 ^ 29 ∧ v < 2 ^ 64 := h
    rw [encodeField, decodeField, List.append_assoc, readVarint_of_lt (by omega), Option.bind_some,
      decodePayload, Nat.mul_mod_right]
    dsimp only
    rw [readVarint_of_lt hv, Option.map_some, Nat.mul_div_cancel_left number (by omega),
      Nat.mod_eq_of_lt hv]
    rfl
  · obtain ⟨hnumber, hb⟩ : number < 2 ^ 29 ∧ b.length < 2 ^ 64 := h
    rw [encodeField, decodeField, List.append_assoc, readVarint_of_lt (by omega), Option.bind_some,
      decodePayload, Nat.mul_add_mod]
    dsimp only
    rw [List.append_assoc, readVarint_of_lt hb, Option.bind_some, if_pos (by
      rw [List.length_append]
      exact Nat.le_add_right _ _), List.take_left, List.drop_left, Nat.mul_add_div (by omega)]
    rfl

/-- Every field takes a byte or more, which bounds the fuel of the decoder. -/
theorem length_le_encode (fields : List Field) : fields.length ≤ (encode fields).length := by
  induction fields with
  | nil => exact Nat.le_refl _
  | cons f fields ih =>
      have hf : 0 < (encodeField f).length := List.length_pos_iff.2 (encodeField_ne_nil f)
      rw [encode_cons, List.length_append, List.length_cons]
      omega

/-- Decoding takes the fields off one by one. -/
theorem decodeFields_encode {n : ℕ} {fields : List Field} (h : ∀ f ∈ fields, f.Fits)
    (hn : fields.length ≤ n) : decodeFields n (encode fields) = some fields := by
  induction fields generalizing n with
  | nil => cases n <;> rfl
  | cons f fields ih =>
      obtain ⟨n, rfl⟩ : ∃ m, n = m + 1 := ⟨n - 1, by rw [List.length_cons] at hn; omega⟩
      have hne : encode (f :: fields) ≠ [] := by
        rw [encode_cons]
        exact List.append_ne_nil_of_left_ne_nil (encodeField_ne_nil f) _
      obtain ⟨b, bytes, hbytes⟩ := List.exists_cons_of_ne_nil hne
      have hfield : decodeField (b :: bytes) = some (f, encode fields) := by
        rw [← hbytes, encode_cons]
        exact decodeField_encodeField (h f List.mem_cons_self) _
      rw [hbytes, decodeFields, hfield, Option.bind_some, ih (fun f' hf' =>
        h f' (List.mem_cons_of_mem f hf')) (Nat.le_of_succ_le_succ hn)]
      rfl

/-- **A message is read back.** -/
theorem decode_encode {fields : List Field} (h : ∀ f ∈ fields, f.Fits) :
    decode (encode fields) = some fields :=
  decodeFields_encode h (length_le_encode fields)

/-- A string is no longer than the message that it is in. -/
theorem length_le_of_mem {fields : List Field} {number : ℕ} {b : List UInt8}
    (h : (number, .bytes b) ∈ fields) : b.length ≤ (encode fields).length := by
  induction fields with
  | nil => exact absurd h List.not_mem_nil
  | cons f fields ih =>
      rw [encode_cons, List.length_append]
      rcases List.mem_cons.1 h with rfl | h
      · rw [encodeField, List.length_append, List.length_append]
        omega
      · have hle := ih h
        omega

/-! ### The fields of a number -/

/-- A field for each string. -/
def ofStrings (number : ℕ) (bs : List (List UInt8)) : List Field := bs.map fun b => (number, .bytes b)

/-- A field for each number. -/
def ofVarints (number : ℕ) (vs : List ℕ) : List Field := vs.map fun v => (number, .varint v)

/-- The strings in the fields with the number. -/
def strings (number : ℕ) (fields : List Field) : List (List UInt8) :=
  fields.filterMap fun
    | (k, .bytes b) => if k = number then some b else none
    | _ => none

/-- The numbers in the fields with the number. -/
def varints (number : ℕ) (fields : List Field) : List ℕ :=
  fields.filterMap fun
    | (k, .varint v) => if k = number then some v else none
    | _ => none

section

variable (number other : ℕ)

/-- The strings of a field number, in order. -/
@[simp] theorem strings_append (fields fields' : List Field) :
    strings number (fields ++ fields') = strings number fields ++ strings number fields' :=
  List.filterMap_append

/-- The varints of a field number, in order. -/
@[simp] theorem varints_append (fields fields' : List Field) :
    varints number (fields ++ fields') = varints number fields ++ varints number fields' :=
  List.filterMap_append

/-- Strings are read back at their own number, and at no other one. -/
@[simp] theorem strings_ofStrings (bs : List (List UInt8)) :
    strings number (ofStrings other bs) = if other = number then bs else [] := by
  rw [strings, ofStrings, List.filterMap_map]
  split_ifs with h
  · exact (List.filterMap_congr fun b _ => if_pos h).trans List.filterMap_some
  · exact List.filterMap_eq_nil_iff.2 fun b _ => if_neg h

/-- There are no strings among varints. -/
@[simp] theorem strings_ofVarints (vs : List ℕ) : strings number (ofVarints other vs) = [] := by
  rw [strings, ofVarints, List.filterMap_map]
  exact List.filterMap_eq_nil_iff.2 fun _ _ => rfl

/-- Varints are read back at their own number, and at no other one. -/
@[simp] theorem varints_ofVarints (vs : List ℕ) :
    varints number (ofVarints other vs) = if other = number then vs else [] := by
  rw [varints, ofVarints, List.filterMap_map]
  split_ifs with h
  · exact (List.filterMap_congr fun v _ => if_pos h).trans List.filterMap_some
  · exact List.filterMap_eq_nil_iff.2 fun v _ => if_neg h

/-- There are no varints among strings. -/
@[simp] theorem varints_ofStrings (bs : List (List UInt8)) : varints number (ofStrings other bs) = [] := by
  rw [varints, ofStrings, List.filterMap_map]
  exact List.filterMap_eq_nil_iff.2 fun _ _ => rfl

end

/-! ### Messages that fit -/

/-- Fields that can be written once their message is short enough. -/
def Writable (fields : List Field) : Prop :=
  ∀ f ∈ fields, f.1 < 2 ^ 29 ∧ ∀ v, f.2 = .varint v → v < 2 ^ 64

/-- A text can be written if its parts can. -/
@[simp] theorem writable_append {fields fields' : List Field} :
    Writable (fields ++ fields') ↔ Writable fields ∧ Writable fields' := List.forall_mem_append

/-- Strings can be written under a small field number. -/
theorem writable_ofStrings {number : ℕ} (h : number < 2 ^ 29) (bs : List (List UInt8)) :
    Writable (ofStrings number bs) := by
  intro f hf
  obtain ⟨b, -, rfl⟩ := List.mem_map.1 hf
  exact ⟨h, fun v hv => by cases hv⟩

/-- So can varints of at most 64 bits. -/
theorem writable_ofVarints {number : ℕ} (h : number < 2 ^ 29) {vs : List ℕ}
    (hvs : ∀ v ∈ vs, v < 2 ^ 64) : Writable (ofVarints number vs) := by
  intro f hf
  obtain ⟨v, hv, rfl⟩ := List.mem_map.1 hf
  refine ⟨h, fun v' hv' => ?_⟩
  cases hv'
  exact hvs v hv

/-- Each string is a field. -/
theorem mem_ofStrings {number : ℕ} {b : List UInt8} {bs : List (List UInt8)} (h : b ∈ bs) :
    (number, .bytes b) ∈ ofStrings number bs := List.mem_map_of_mem h

/-- **A short message is read back.** -/
theorem Writable.decode_encode {fields : List Field} (h : Writable fields)
    (hlength : (encode fields).length < 2 ^ 64) : decode (encode fields) = some fields := by
  refine Wire.decode_encode fun f hf => ?_
  obtain ⟨number, v | b⟩ := f
  · exact ⟨(h _ hf).1, (h _ hf).2 v rfl⟩
  · exact ⟨(h _ hf).1, Nat.lt_of_le_of_lt (length_le_of_mem hf) hlength⟩

end Foundations.Wire
